import LivePreview.Diagnosis.Remedy
import LivePreview.Json.Document

/-!
Diagnoses and remedies as JSON.
-/

namespace LivePreview

/-- A kind in a document. -/
def ErrorKind.ofDocument? {δ : Type} [Document δ] (d : δ) : Option ErrorKind :=
  Document.named all name d

namespace Diagnosis

/-- A diagnosis as JSON; what it does not have is left out. -/
def toJson (diagnosis : Diagnosis) : Json :=
  .record (Json.present [("type", some (.text diagnosis.kind.name)),
    ("message", some (.text diagnosis.message)), ("file", diagnosis.location.file?.map .text),
    ("line", diagnosis.location.line?.map .nat), ("column", diagnosis.location.column?.map .nat),
    ("original_error", some (.text diagnosis.reported)),
    ("suggestion", some (.text diagnosis.suggestion)),
    ("confidence", some (.real diagnosis.confidence)),
    ("context", diagnosis.context?.map .text)])

/-- Read a diagnosis. -/
def ofDocument? {δ : Type} [Document δ] (d : δ) : Option Diagnosis := do
  let record ← Document.record? ["type", "message", "file", "line", "column", "original_error",
    "suggestion", "confidence", "context"] d
  pure {
    kind := ← Document.need record "type" ErrorKind.ofDocument?
    message := ← Document.need record "message" Document.text?
    location := {
      file? := ← Document.may record "file" Document.text?
      line? := ← Document.may record "line" Document.nat32
      column? := ← Document.may record "column" Document.nat32 }
    reported := ← Document.need record "original_error" Document.text?
    suggestion := ← Document.need record "suggestion" Document.text?
    confidence := ← Document.need record "confidence" Document.real?
    context? := ← Document.may record "context" Document.text? }

end Diagnosis

/-- A remedy as JSON; what it does not have is left out. -/
def Remedy.toJson (remedy : Remedy) : Json :=
  .record (Json.present [("success", some (.bool remedy.success)),
    ("fixed_code", remedy.patch?.map .text), ("description", some (.text remedy.description)),
    ("strategy", some (.text remedy.kind.name)), ("ai_prompt", remedy.prompt?.map .text),
    ("target_file", remedy.target?.map .text)])

end LivePreview
