import LivePreview.Diagnosis.Basic
import LivePreview.Retry.Span

/-!
Repair services. A service is given a prompt about a file and answers with the whole new content of
the file; it may take its time, and it may fail. A service has a state, so that it can remember what
it was asked.
-/

namespace LivePreview.Repair

/-- What a service is told about the file to be repaired. -/
structure Request where
  prompt : String
  /-- The path of the file. -/
  target : String
  /-- The content of the file. -/
  content : String
  diagnosis : Diagnosis
deriving DecidableEq, Repr

/-- Why a service gives no content. -/
inductive Refusal where
  | declined (reason : String)
  | failed (file : String) (reason : String)
deriving DecidableEq, Repr

/-- What a refusal is called. -/
def Refusal.message : Refusal → String
  | declined reason => s!"Repair declined: {reason}"
  | failed file reason => s!"Repair failed for {file}: {reason}"

/-- A repair service whose state is a `ρ`. -/
structure Service (ρ : Type) where
  name : String
  /-- The service answers prompts at all. -/
  answersPrompts : Bool
  /-- The time that passes before an answer. -/
  pause : Retry.Span
  repair : Request → ρ → Except Refusal String × ρ

namespace Service

/-- The name of the service that leaves repair to patches. -/
def patchOnlyName : String := "patch-only"

/-- The service that leaves repair to patches and declines every prompt. -/
def patchOnly : Service Unit where
  name := patchOnlyName
  answersPrompts := false
  pause := 0
  repair request state :=
    (.error (.declined s!"{patchOnlyName} cannot answer prompts for {request.target}"), state)

end Service

end LivePreview.Repair
