import LivePreview.Bundle.Bundler
import LivePreview.Diagnosis.Remedy
import LivePreview.Repair.Service
import LivePreview.Retry.Scheduler

/-!
The workspace of healing: the files under repair, the bundler and the repair service in their present
states, and the fixes so far. An attempt at a fix holds its file, changes it by a patch or by the
answer of the service, lets the file go and bundles; it has succeeded if the bundle no longer reports
the diagnosis.
-/

namespace LivePreview

/-- Two diagnoses are about the same error: they agree in kind, message and file. -/
def Diagnosis.isSame (first second : Diagnosis) : Bool :=
  first.kind == second.kind && first.message == second.message &&
    first.location.file?.map Path.normalize == second.location.file?.map Path.normalize

namespace Healing

/-- Where new content came from. -/
inductive Origin where
  | patch
  | repair
deriving DecidableEq, Repr

/-- A fix after which its diagnosis was no longer reported. -/
structure Fix where
  round : Nat
  kind : ErrorKind
  message : String
  target : String
  description : String
  origin : Origin
  /-- The number of attempts it took. -/
  attempts : Nat
deriving DecidableEq, Repr

/-- The files under repair with all that works on them. -/
structure Workspace (σ ρ : Type) where
  files : Sources
  bundler : Bundler σ
  /-- The state of the repair service. -/
  service : ρ
  /-- The latest answer of the repair service. -/
  answer : Except Repair.Refusal String
  /-- The latest bundle. -/
  built : BundleResult
  fixes : List Fix

namespace Workspace

variable {σ ρ : Type}

/-- The workspace with its files bundled. -/
def bundle (workspace : Workspace σ ρ) : Workspace σ ρ :=
  let (built, bundler) := workspace.bundler.bundle workspace.files
  { workspace with built := built, bundler := bundler }

/-- The workspace of files, which are bundled. -/
def ofFiles (bundler : Bundler σ) (service : ρ) (files : Sources) : Workspace σ ρ :=
  let (built, bundler) := bundler.bundle files
  ⟨files, bundler, service, .ok "", built, []⟩

/-- The content of a file; one that is not there is empty. -/
def content (workspace : Workspace σ ρ) (path : String) : String :=
  (workspace.files.get? path).getD ""

/-- The workspace with new content in a file, unless it is what the file held before. -/
def write (target current content : String) (workspace : Workspace σ ρ) : Workspace σ ρ :=
  if content = current then workspace
  else { workspace with files := workspace.files.insert target content }

/-- The workspace after a request to the repair service. -/
def ask (service : Repair.Service ρ) (request : Repair.Request) (workspace : Workspace σ ρ) :
    Workspace σ ρ :=
  let (answer, state) := service.repair request workspace.service
  { workspace with answer := answer, service := state }

/-- The workspace with one more fix. -/
def addFix (fix : Fix) (workspace : Workspace σ ρ) : Workspace σ ρ :=
  { workspace with fixes := workspace.fixes ++ [fix] }

end Workspace

end Healing

namespace BundleResult

/-- The diagnoses of the errors of a bundle. -/
def diagnoses (result : BundleResult) (classifier : Classifier) : List Diagnosis :=
  classifier.classifyAll (result.errors.map (·.raw))

/-- The bundle reports the error of a diagnosis. -/
def reports (result : BundleResult) (classifier : Classifier) (diagnosis : Diagnosis) : Bool :=
  (result.diagnoses classifier).any (·.isSame diagnosis)

end BundleResult

namespace Healing

/-- An attempt at a fix: the error, where it is to be repaired, and the number of the attempt. -/
structure Attempt where
  round : Nat
  diagnosis : Diagnosis
  target : String
  number : Nat

namespace Attempt

open Retry (Work)

variable {σ ρ : Type}

/-- The fix that a successful attempt is. -/
def fix (attempt : Attempt) (description : String) (origin : Origin) : Fix :=
  { round := attempt.round
    kind := attempt.diagnosis.kind
    message := attempt.diagnosis.message
    target := attempt.target
    description, origin
    attempts := attempt.number }

/-- Bundle, and note the fix if the diagnosis is no longer reported. -/
def verify (classifier : Classifier) (attempt : Attempt) (fix : Fix) : Work (Workspace σ ρ) :=
  .act Workspace.bundle fun workspace =>
    if workspace.built.reports classifier attempt.diagnosis then .finish .returnedFalse
    else .act (Workspace.addFix fix) fun _ => .finish .succeeded

/-- Put new content into the file, let it go and see whether it helped. -/
def put (classifier : Classifier) (attempt : Attempt) (current content : String) (fix : Fix) :
    Work (Workspace σ ρ) :=
  .act (Workspace.write attempt.target current content) fun _ =>
    .release attempt.target (attempt.verify classifier fix)

/-- What to do with the answer of the repair service. -/
def useAnswer (classifier : Classifier) (attempt : Attempt) (current : String) (fix : Fix) :
    Except Repair.Refusal String → Work (Workspace σ ρ)
  | .ok content => attempt.put classifier current content fix
  | .error refusal => .release attempt.target (.finish (.errored refusal.message))

/-- What to do about the file with its current content. -/
def treat (classifier : Classifier) (service : Repair.Service ρ) (attempt : Attempt)
    (current : String) : Work (Workspace σ ρ) :=
  let remedy := attempt.diagnosis.remedy current
  let giveUp := Work.release attempt.target (.finish .returnedFalse)
  match remedy.action with
  | .patch content => attempt.put classifier current content (attempt.fix remedy.description .patch)
  | .prompt prompt =>
    if service.answersPrompts then
      .sleep service.pause <|
        .act (Workspace.ask service ⟨prompt, attempt.target, current, attempt.diagnosis⟩)
          fun workspace => attempt.useAnswer classifier current
            (attempt.fix remedy.description .repair) workspace.answer
    else giveUp
  | .none => giveUp

/-- The work of an attempt: the file is held while its new content is made. -/
def work (classifier : Classifier) (service : Repair.Service ρ) (attempt : Attempt) :
    Work (Workspace σ ρ) :=
  .hold attempt.target <| .act id fun workspace =>
    attempt.treat classifier service (workspace.content attempt.target)

end Attempt

end Healing

end LivePreview
