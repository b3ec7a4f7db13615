import LivePreview.Binary64.Basic
import LivePreview.Diagnosis.Kind
import LivePreview.Diagnosis.Location
import LivePreview.Text.Blank

/-!
Diagnoses: errors brought into a form in which they can be acted on.
-/

namespace LivePreview

/-- A diagnosed error. -/
structure Diagnosis where
  kind : ErrorKind
  /-- The first line of the error. -/
  message : String
  location : Location
  /-- The whole error as it was reported. -/
  reported : String
  suggestion : String
  /-- How certain the diagnosis is, from 0 to 1. -/
  confidence : Binary64
  /-- What followed the first line, if anything. -/
  context? : Option String
deriving DecidableEq, Repr

namespace Diagnosis

/-- The first line of an error without the prefix of the console, and what follows it. -/
def firstLine (raw : List Char) : List Char × Option (List Char) :=
  let trimmed := Text.trim raw
  let (first, rest) := match Text.cut? ['\n'] trimmed with
    | some (first, rest) => (first, Text.trim rest)
    | none => (trimmed, [])
  let first := Text.trim first
  ((Text.after? "Uncaught ".toList first).getD first, if rest = [] then none else some rest)

/-- The least confidence at which an attempt at repair may be spent. -/
def fixThreshold : Binary64 := .ofDecimal false 7 (-1)

/-- An attempt at repair may be spent on the error. -/
def isFixable (diagnosis : Diagnosis) : Bool :=
  diagnosis.kind.isFixable && fixThreshold.le diagnosis.confidence

end Diagnosis

end LivePreview
