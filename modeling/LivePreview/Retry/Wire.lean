import LivePreview.Diagnosis.Wire
import LivePreview.Retry.Task

/-!
Settings, states, outcomes and counts of the retry scheduler as JSON, and as parts of documents.
-/

namespace LivePreview.Retry

/-- Priorities as JSON. -/
def Priorities.toJson (priorities : Priorities) : Json :=
  .record (priorities.map fun entry => (entry.1.name, .integer entry.2))

/-- Read priorities. -/
def Priorities.ofDocument? {δ : Type} [Document δ] (d : δ) : Option Priorities := do
  let fields ← Document.fields? d
  let entries ← fields.mapM fun field => do
    pure (← ErrorKind.ofName? field.1, ← Document.int32 field.2)
  pure (.ofList entries)

/-- Settings as JSON. -/
def Settings.toJson (settings : Settings) : Json :=
  .record [("base_delay_ms", .nat settings.baseDelay.toMillis),
    ("max_delay_ms", .nat settings.maxDelay.toMillis),
    ("backoff_multiplier", .real settings.multiplier), ("jitter_fraction", .real settings.jitter),
    ("max_attempts", .nat settings.maxAttempts), ("concurrency", .nat settings.concurrency),
    ("priorities", settings.priorities.toJson)]

/-- Read settings; each has a default. -/
def Settings.ofDocument? {δ : Type} [Document δ] (d : δ) : Option Settings := do
  let usual : Settings := {}
  let span (d : δ) : Option Span := (Document.nat64 d).map Span.ofMillis
  let record ← Document.record? ["base_delay_ms", "max_delay_ms", "backoff_multiplier",
    "jitter_fraction", "max_attempts", "concurrency", "priorities"] d
  pure {
    baseDelay := ← Document.orElse record "base_delay_ms" usual.baseDelay span
    maxDelay := ← Document.orElse record "max_delay_ms" usual.maxDelay span
    multiplier := ← Document.orElse record "backoff_multiplier" usual.multiplier Document.real?
    jitter := ← Document.orElse record "jitter_fraction" usual.jitter Document.real?
    maxAttempts := ← Document.orElse record "max_attempts" usual.maxAttempts Document.nat32
    concurrency := ← Document.orElse record "concurrency" usual.concurrency Document.nat64
    priorities := ←
      Document.orElse record "priorities" usual.priorities Priorities.ofDocument? }

/-- Read a state. -/
def Status.ofDocument? {δ : Type} [Document δ] (d : δ) : Option Status :=
  Document.named all name d

/-- An outcome as JSON. -/
def Outcome.toJson : Outcome → Json
  | succeeded => .record [("outcome", .text "succeeded")]
  | returnedFalse => .record [("outcome", .text "returned-false")]
  | errored message => .record [("outcome", .text "errored"), ("message", .text message)]

/-- Read an outcome: its name, and its message where it has one. -/
def Outcome.ofDocument? {δ : Type} [Document δ] (d : δ) : Option Outcome := do
  let record ← Document.record? ["outcome", "message"] d
  let name ← Document.need record "outcome" Document.text?
  if name = "errored" then
    pure (errored (← Document.need record "message" Document.text?))
  else
    let plain ← [("succeeded", succeeded), ("returned-false", returnedFalse)].lookup name
    if (record "message").all Document.isNull && (Document.parts? d).all (·.length == 2) then
      pure plain
    else none

/-- Counts as JSON. -/
def Stats.toJson (stats : Stats) : Json :=
  .record [("total", .nat stats.total), ("pending", .nat stats.pending),
    ("in_progress", .nat stats.inProgress), ("waiting", .nat stats.waiting),
    ("succeeded", .nat stats.succeeded), ("failed", .nat stats.failed),
    ("cancelled", .nat stats.cancelled)]

end LivePreview.Retry
