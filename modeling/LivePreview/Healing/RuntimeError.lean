import LivePreview.Diagnosis.Remedy
import LivePreview.PreviewMessage
import LivePreview.Sources

/-!
Errors that the preview reports while it runs, with the remedies for them.
-/

namespace LivePreview.Healing

/-- What can be said of an error at run time. -/
structure RuntimeDiagnosis where
  diagnosis : Diagnosis
  /-- The file to which the remedy applies. -/
  target? : Option String
  remedy : Remedy
deriving DecidableEq, Repr

/-- Diagnose a message of the preview. There is nothing to say of what is no message on the
channel. -/
def RuntimeDiagnosis.ofMessage? (source channel : String) (files : Sources) :
    Option RuntimeDiagnosis :=
  (PreviewMessage.parse? source channel).map fun message =>
    let diagnosis := Classifier.usual.classify message.raw
    let target? := diagnosis.location.file?.bind files.spelling?
    let content := (target?.bind files.get?).getD ""
    ⟨diagnosis, target?, diagnosis.remedy content⟩

end LivePreview.Healing
