import LivePreview.Diagnosis.Basic
import LivePreview.Diagnosis.Form

/-!
Classification of errors by an ordered table of rules: the first rule whose form occurs in an error
decides its kind, its confidence and the suggestion. Classification never fails.
-/

namespace LivePreview

/-- A rule of the table. -/
structure Rule where
  kind : ErrorKind
  form : Pattern
  confidence : Binary64
  /-- The suggestion, made from the match and the whole error. -/
  suggest : Pattern.Match → (raw : String) → String

namespace Rule

/-- A rule with a confidence in hundredths. -/
def ofPercent (kind : ErrorKind) (form : Pattern) (percent : Nat)
    (suggest : Pattern.Match → String) : Rule :=
  ⟨kind, form, .ofDecimal false percent (-2), fun found _ => suggest found⟩

/-- A rule whose suggestion is a text in which `$1` stands for the first group and then `$raw` for the
whole error. -/
def ofTemplate (kind : ErrorKind) (form : Pattern) (confidence : Binary64) (template : String) :
    Rule :=
  ⟨kind, form, confidence, fun found raw => String.ofList <|
    Text.replaceAll "$raw".toList raw.toList <|
      Text.replaceAll "$1".toList (found.group 1) template.toList⟩

/-- Rules about imports, exports and names. -/
def imports : List Rule := [
  .ofPercent .missingImport Diagnosis.Form.noExportNamed 90 fun m =>
    s!"The imported module does not export `{m.groupText 1}`. Import an existing export or add the missing export.",
  .ofPercent .missingImport Diagnosis.Form.unmatchedExport 90 fun m =>
    s!"`{m.groupText 1}` does not export `{m.groupText 2}`. Use the name it actually exports or add the export.",
  .ofPercent .missingImport Diagnosis.Form.unknownMember 90 fun m =>
    s!"`{m.groupText 1}` has no exported member `{m.groupText 2}`.",
  .ofPercent .missingImport Diagnosis.Form.moduleNotFound 90 fun m =>
    s!"The module `{m.groupText 1}` cannot be resolved. Check the path or create the file.",
  .ofPercent .missingImport (Diagnosis.Form.nameNotFound 1) 85 fun m =>
    s!"`{m.groupText 1}` is used but never imported or declared.",
  .ofPercent .missingImport Diagnosis.Form.notDefined 85 fun m =>
    s!"`{m.groupText 1}` is used but never imported or declared. Add the missing import or define it."]

/-- Rules about hooks. -/
def hooks : List Rule := [
  .ofPercent .hookRule Diagnosis.Form.conditionalHook 85 fun m =>
    s!"Move `{m.groupText 1}` to the top level of the component, before any early return or condition.",
  .ofPercent .hookRule (.text "Invalid hook call") 85 fun _ =>
    "Hooks may only be called inside the body of a function component or custom hook.",
  .ofPercent .hookRule Diagnosis.Form.misplacedHook 85 fun m =>
    s!"`{m.groupText 1}` is called outside a component or custom hook.",
  .ofPercent .hookRule Diagnosis.Form.hookCount 80 fun m =>
    s!"A render called {m.groupText 1} hooks than the previous one; hooks must run unconditionally in the same order."]

/-- Rules about types and values. -/
def types : List Rule := [
  .ofPercent .typeError Diagnosis.Form.emptyAccess 80 fun m =>
    if m.group 2 = [] then
      s!"A value is {m.groupText 1} when it is accessed. Guard it or provide a default."
    else
      s!"Reading `{m.groupText 2}` from a value that is {m.groupText 1}. Guard it with optional chaining or provide a default.",
  .ofPercent .typeError Diagnosis.Form.notFunction 80 fun m =>
    s!"`{m.groupText 1}` is not callable here. Check its type and how it is imported.",
  .ofPercent .typeError Diagnosis.Form.typeMismatch 80 fun m =>
    s!"A `{m.groupText 1}` is passed where `{m.groupText 2}` is expected.",
  .ofPercent .typeError Diagnosis.Form.unknownProperty 80 fun m =>
    s!"`{m.groupText 1}` is not declared on `{m.groupText 2}`. Add it to the type or use an existing property."]

/-- Rules about the form of a source text. -/
def sourceForm : List Rule := [
  .ofPercent .syntaxError Diagnosis.Form.unterminated 85 fun _ =>
    "Close the unterminated string or template literal.",
  .ofPercent .syntaxError Diagnosis.Form.unexpectedEnd 85 fun _ =>
    "The file ends before every block is closed; it is probably truncated.",
  .ofPercent .syntaxError Diagnosis.Form.strayToken 80 fun m =>
    let token := if m.group 1 = [] then m.groupText 2 else m.groupText 1
    s!"Unexpected `{token}`; check the surrounding brackets and JSX.",
  .ofPercent .syntaxError (.text "SyntaxError") 70 fun _ =>
    "Fix the syntax error at the reported location."]

/-- Rules about what happens at run time. -/
def running : List Rule := [
  .ofPercent .runtimeError Diagnosis.Form.endlessRecursion 80 fun _ =>
    "Infinite recursion: look for a component that renders itself or an effect that updates its own dependency.",
  .ofPercent .runtimeError (.text "Too many re-renders") 80 fun _ =>
    "State is set during render. Move the update into an event handler or effect.",
  .ofPercent .runtimeError Diagnosis.Form.usedTooEarly 75 fun m =>
    s!"`{m.groupText 1}` is used before its declaration runs; reorder the declarations.",
  .ofPercent .runtimeError (.text "ReferenceError") 60 fun _ =>
    "A name is referenced that does not exist at runtime."]

/-- Rules about styles and markup. -/
def styles : List Rule := [
  .ofPercent .styleIssue Diagnosis.Form.invalidProperty 60 fun m =>
    if m.has 2 then s!"Rename `{m.groupText 1}` to `{m.groupText 2}`."
    else s!"`{m.groupText 1}` is not a valid DOM property.",
  .ofPercent .styleIssue Diagnosis.Form.missingClass 60 fun m =>
    s!"The utility class `{m.groupText 1}` is not defined by the stylesheet.",
  .ofPercent .styleIssue (.text "unique \"key\" prop") 60 fun _ =>
    "Give each element rendered from a list a stable `key`.",
  .ofPercent .styleIssue Diagnosis.Form.unknownStyle 60 fun _ =>
    "Remove or correct the unknown style property."]

/-- The usual table. -/
def usual : List Rule := imports ++ hooks ++ types ++ sourceForm ++ running ++ styles

end Rule

/-- A table of rules, the first one being tried first. -/
structure Classifier where
  rules : List Rule

namespace Classifier

/-- The classifier with the usual table. -/
def usual : Classifier := ⟨Rule.usual⟩

/-- The classifier with one more rule, which is tried before all others. -/
def withRule (classifier : Classifier) (rule : Rule) : Classifier := ⟨rule :: classifier.rules⟩

/-- The confidence of a diagnosis that no rule made. -/
def guessConfidence : Binary64 := .ofDecimal false 3 (-1)

/-- The first rule whose form occurs in an error, and where it does. -/
def firstMatch? (classifier : Classifier) (raw : List Char) : Option (Rule × Pattern.Match) :=
  classifier.rules.findSome? fun rule => (rule.form.find? raw).map fun found => (rule, found)

/-- Diagnose an error. -/
def classify (classifier : Classifier) (raw : String) : Diagnosis :=
  let (message, context?) := Diagnosis.firstLine raw.toList
  let (kind, suggestion, confidence) := match classifier.firstMatch? raw.toList with
    | some (rule, found) => (rule.kind, rule.suggest found raw, rule.confidence)
    | none => (ErrorKind.unknown, "Review the error output and the recently changed code.",
        guessConfidence)
  { kind, suggestion, confidence
    message := String.ofList message
    location := .ofMessage raw.toList
    reported := raw
    context? := context?.map String.ofList }

/-- The diagnoses whose kind and message no earlier one has; `seen` are the pairs of earlier ones. -/
def distinct : (seen : List (ErrorKind × String)) → List Diagnosis → List Diagnosis
  | _, [] => []
  | seen, diagnosis :: later =>
    let key := (diagnosis.kind, diagnosis.message)
    if key ∈ seen then distinct seen later else diagnosis :: distinct (key :: seen) later

/-- Diagnose several errors: each kind and message once, the most certain first. -/
def classifyAll (classifier : Classifier) (raws : List String) : List Diagnosis :=
  (distinct [] (raws.map classifier.classify)).mergeSort fun a b =>
    b.confidence.rank ≤ a.confidence.rank

end Classifier

end LivePreview
