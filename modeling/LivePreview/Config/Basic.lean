import LivePreview.Bundle.Bundler
import LivePreview.Healing.Options
import LivePreview.Retry.Settings

/-!
The settings of the whole program and the check that they make sense.
-/

namespace LivePreview

/-- The settings of bundler, scheduler and healing. -/
structure Config where
  bundler : BundleOptions := {}
  scheduler : Retry.Settings := {}
  healing : Healing.Options := {}
deriving DecidableEq, Repr, Inhabited

/-- What is wrong with a configuration. -/
inductive ConfigError where
  | scheduler (e : Retry.SettingsError)
  | noRounds
  | blankWrapperKey
deriving DecidableEq, Repr

/-- What a configuration error is called. -/
def ConfigError.message : ConfigError → String
  | scheduler e => s!"Scheduler error: {e.message}"
  | noRounds => "Invalid configuration: heal.max_rounds must be at least 1"
  | blankWrapperKey => "Invalid configuration: bundler.wrapper_key must not be empty"

/-- What is wrong with a configuration, if anything. -/
def Config.problem? (config : Config) : Option ConfigError :=
  match config.scheduler.problem? with
  | some e => some (.scheduler e)
  | none =>
    if config.healing.maxRounds = 0 then some .noRounds
    else if Text.trim config.bundler.wrapperKey.toList = [] then some .blankWrapperKey
    else none

end LivePreview
