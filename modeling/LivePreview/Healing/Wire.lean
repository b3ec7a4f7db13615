import LivePreview.Bundle.Wire
import LivePreview.Diagnosis.Wire
import LivePreview.Healing.Healer
import LivePreview.Healing.RuntimeError
import LivePreview.Retry.Wire

/-!
What comes of healing, as JSON.
-/

namespace LivePreview

/-- A request to a repair service as JSON. -/
def Repair.Request.toJson (request : Repair.Request) : Json :=
  .record [("prompt", .text request.prompt), ("target_file", .text request.target),
    ("current_content", .text request.content), ("diagnosis", request.diagnosis.toJson)]

/-- Files as JSON. -/
def Sources.toJson (files : Sources) : Json :=
  .record (files.toList.map fun file => (file.1, .text file.2))

namespace Healing

/-- The name of an origin. -/
def Origin.name : Origin → String
  | patch => "patch"
  | repair => "repair"

/-- A fix as JSON. -/
def Fix.toJson (fix : Fix) : Json :=
  .record [("round", .nat fix.round), ("kind", .text fix.kind.name), ("message", .text fix.message),
    ("target_file", .text fix.target), ("description", .text fix.description),
    ("source", .text fix.origin.name), ("attempts", .nat fix.attempts)]

/-- A report as JSON. -/
def Report.toJson (report : Report) : Json :=
  .record [("success", .bool report.success), ("rounds", .nat report.rounds),
    ("result", report.result.toJson), ("applied", .list (report.fixes.map Fix.toJson)),
    ("remaining", .list (report.remaining.map Diagnosis.toJson)), ("files", report.files.toJson),
    ("modified", .texts report.modified), ("stats", report.stats.toJson)]

/-- What can be said of an error at run time, as JSON. -/
def RuntimeDiagnosis.toJson (report : RuntimeDiagnosis) : Json :=
  .record [("diagnosis", report.diagnosis.toJson),
    ("auto_fixable", .bool report.diagnosis.isFixable),
    ("target_file", .ofOption .text report.target?), ("fix", report.remedy.toJson)]

end Healing

end LivePreview
