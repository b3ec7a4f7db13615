import LivePreview.Json.Document

/-!
The limits of healing.
-/

namespace LivePreview.Healing

/-- The limits of healing. -/
structure Options where
  /-- The most rounds that are made. -/
  maxRounds : Nat := 3
  /-- Act only on diagnoses on which an attempt at repair may be spent. -/
  fixableOnly : Bool := true
deriving DecidableEq, Repr, Inhabited

namespace Options

/-- The limits as JSON. -/
def toJson (options : Options) : Json :=
  .record [("max_rounds", .nat options.maxRounds), ("auto_fixable_only", .bool options.fixableOnly)]

/-- Read limits; each has a default. -/
def ofDocument? {δ : Type} [Document δ] (d : δ) : Option Options := do
  let usual : Options := {}
  let record ← Document.record? ["max_rounds", "auto_fixable_only"] d
  pure {
    maxRounds := ← Document.orElse record "max_rounds" usual.maxRounds Document.nat32
    fixableOnly :=
      ← Document.orElse record "auto_fixable_only" usual.fixableOnly Document.bool? }

end Options

end LivePreview.Healing
