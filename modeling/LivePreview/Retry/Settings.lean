import LivePreview.Binary64.Shortest
import LivePreview.Diagnosis.Kind
import LivePreview.Retry.Span

/-!
Settings of the retry scheduler and the check that they make sense.
-/

namespace LivePreview.Retry

/-- Priorities by kind of error, in the order of the kinds. -/
abbrev Priorities := List (ErrorKind × Int)

namespace Priorities

/-- The priorities with one more, which takes the place of an older one. -/
def set (priorities : Priorities) (kind : ErrorKind) (priority : Int) : Priorities :=
  ErrorKind.all.filterMap fun other =>
    if other = kind then some (kind, priority)
    else (priorities.lookup other).map fun p => (other, p)

/-- The priorities of a list; of two for one kind the later one counts. -/
def ofList (entries : List (ErrorKind × Int)) : Priorities :=
  entries.foldl (fun priorities entry => priorities.set entry.1 entry.2) []

/-- The usual priorities. -/
def usual : Priorities :=
  [(.missingImport, 10), (.hookRule, 5), (.typeError, 6), (.syntaxError, 8), (.runtimeError, 4),
    (.styleIssue, 2), (.unknown, 1)]

end Priorities

/-- Settings of the retry scheduler. -/
structure Settings where
  /-- The delay after the first failure. -/
  baseDelay : Span := Span.ofMillis 1000
  maxDelay : Span := Span.ofMillis 30000
  multiplier : Binary64 := Binary64.ofNat 2
  /-- The part of a delay that is added or taken away at random. -/
  jitter : Binary64 := Binary64.ofDecimal false 2 (-1)
  maxAttempts : Nat := 3
  /-- The number of tasks that may run at the same time. -/
  concurrency : Nat := 1
  priorities : Priorities := Priorities.usual
deriving DecidableEq, Repr, Inhabited

/-- What is wrong with settings. -/
inductive SettingsError where
  | multiplierBelowOne (multiplier : Binary64)
  | jitterOutside (jitter : Binary64)
  | noAttempts
  | noConcurrency
  | baseAboveMax (base most : Span)
deriving DecidableEq, Repr

/-- What a settings error is called. -/
def SettingsError.message (e : SettingsError) : String :=
  let reason := match e with
    | multiplierBelowOne x => s!"backoff_multiplier must be >= 1, got {x.plain}"
    | jitterOutside x => s!"jitter_fraction must be within [0, 1], got {x.plain}"
    | noAttempts => "max_attempts must be at least 1"
    | noConcurrency => "concurrency must be at least 1"
    | baseAboveMax base most => s!"base_delay ({base.text}) exceeds max_delay ({most.text})"
  s!"Invalid scheduler configuration: {reason}"

namespace Settings

/-- The priority of a kind; a kind without one has priority zero. -/
def priorityOf (settings : Settings) (kind : ErrorKind) : Int :=
  (settings.priorities.lookup kind).getD 0

/-- What is wrong with the settings, if anything. -/
def problem? (settings : Settings) : Option SettingsError :=
  if !Binary64.one.le settings.multiplier then some (.multiplierBelowOne settings.multiplier)
  else if !(Binary64.zero.le settings.jitter && settings.jitter.le .one) then
    some (.jitterOutside settings.jitter)
  else if settings.maxAttempts = 0 then some .noAttempts
  else if settings.concurrency = 0 then some .noConcurrency
  else if settings.maxDelay < settings.baseDelay then
    some (.baseAboveMax settings.baseDelay settings.maxDelay)
  else none

end Settings

end LivePreview.Retry
