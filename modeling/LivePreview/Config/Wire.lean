import LivePreview.Bundle.Wire
import LivePreview.Config.Basic
import LivePreview.Retry.Wire

/-!
The settings of the program as JSON, and as a document of any format.
-/

namespace LivePreview.Config

/-- A configuration as JSON. -/
def toJson (config : Config) : Json :=
  .record [("bundler", config.bundler.toJson), ("scheduler", config.scheduler.toJson),
    ("heal", config.healing.toJson)]

/-- Read a configuration; each part has a default. -/
def ofDocument? {δ : Type} [Document δ] (d : δ) : Option Config := do
  let record ← Document.record? ["bundler", "scheduler", "heal"] d
  pure {
    bundler := ← Document.orElse record "bundler" {} BundleOptions.ofDocument?
    scheduler := ← Document.orElse record "scheduler" {} Retry.Settings.ofDocument?
    healing := ← Document.orElse record "heal" {} Healing.Options.ofDocument? }

end LivePreview.Config
