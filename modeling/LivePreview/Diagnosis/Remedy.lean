import LivePreview.Diagnosis.Classifier
import LivePreview.Diagnosis.ImportPatch

/-!
Remedies. A diagnosis leads to a patch of the source, which can be applied at once, or to a prompt for
whoever repairs sources. Only a missing import of a known name is patched.
-/

namespace LivePreview

/-- What is to be done about an error. -/
inductive Action where
  /-- Put this source in the place of the old one. -/
  | patch (source : String)
  /-- Have the source repaired by this prompt. -/
  | prompt (text : String)
  /-- The error could not be read. -/
  | none
deriving DecidableEq, Repr

/-- A remedy for an error. -/
structure Remedy where
  action : Action
  description : String
  kind : ErrorKind
  target? : Option String
deriving DecidableEq, Repr

namespace Remedy

/-- The remedy tells what to do. -/
def success (remedy : Remedy) : Bool := remedy.action != .none

/-- The patched source. -/
def patch? (remedy : Remedy) : Option String :=
  match remedy.action with
  | .patch source => some source
  | _ => Option.none

/-- The prompt for a repair. -/
def prompt? (remedy : Remedy) : Option String :=
  match remedy.action with
  | .prompt text => some text
  | _ => Option.none

end Remedy

namespace Diagnosis

/-- The text in which a remedy looks for details. -/
def details (diagnosis : Diagnosis) : List Char :=
  if Text.trim diagnosis.reported.toList = [] then diagnosis.message.toList
  else diagnosis.reported.toList

/-- The words for the line and the column, with a blank before them. -/
def placeWords (diagnosis : Diagnosis) : String :=
  match diagnosis.location.line?, diagnosis.location.column? with
  | some line, some column => s!" at line {line}, column {column}"
  | some line, none => s!" at line {line}"
  | none, _ => ""

/-- The label of the kind in lower case. -/
def plainLabel (diagnosis : Diagnosis) : String := diagnosis.kind.label.toLower

/-- The line of the source at which the error shows, if it is not blank. -/
def offendingLine? (diagnosis : Diagnosis) (source : List Char) : Option (List Char) := do
  let line ← diagnosis.location.line?
  let text ← if line = 0 then none else (Text.lines source)[line - 1]?
  let trimmed := Text.trim text
  if trimmed = [] then none else some trimmed

/-- The prompt for a repair of the source by an instruction. -/
def promptFor (diagnosis : Diagnosis) (source : List Char) (instruction : String) : String :=
  let file := diagnosis.location.file?.getD "the affected file"
  let place := match diagnosis.location.text? with
    | some location => s!"Location: {location}\n"
    | none => ""
  let line := match diagnosis.offendingLine? source with
    | some line => s!"Offending line: {String.ofList line}\n"
    | none => ""
  s!"Fix the {diagnosis.plainLabel} in {file}.\n\nError: {diagnosis.message}\n" ++ place ++ line ++
    s!"\n{instruction}\n\nReturn the complete corrected file content only."

/-- A remedy by a prompt. -/
def directive (diagnosis : Diagnosis) (source : List Char) (description instruction : String) :
    Remedy :=
  { action := .prompt (diagnosis.promptFor source instruction)
    description
    kind := diagnosis.kind
    target? := diagnosis.location.file? }

/-- The remedy when nothing more is known than the suggestion. -/
def generalRemedy (diagnosis : Diagnosis) (source : List Char) : Remedy :=
  diagnosis.directive source s!"Requested repair for {diagnosis.plainLabel}"
    s!"Diagnose and fix the problem. Hint: {diagnosis.suggestion}"

/-- The module, if it is named, and the export that it lacks. -/
def missingExport? (text : List Char) : Option (Option String × String) :=
  ((Form.unmatchedExport.find? text).or (Form.unknownMember.find? text)).or
      (Form.refusedExport.find? text) |>.map fun found =>
    ((found.group? 1).map String.ofList, found.groupText 2)

/-- The name that is not defined. -/
def undefinedName? (text : List Char) : Option String :=
  (Form.undefinedName.find? text).map fun found =>
    String.ofList (((found.group? 1).or (found.group? 2)).getD [])

/-- The remedy for an import or a name that leads nowhere. -/
def importRemedy (diagnosis : Diagnosis) (source : List Char) : Remedy :=
  let text := diagnosis.details
  match missingExport? text, undefinedName? text, Form.importNotFound.find? text with
  | some (module?, name), _, _ =>
    let module := module?.getD "the imported module"
    diagnosis.directive source s!"`{module}` has no export `{name}`"
      s!"`{module}` does not export `{name}`. Change the import to a name `{module}` actually exports, switch between default and named import as appropriate, or add the missing export to `{module}` if it is a project file."
  | none, some name, _ =>
    match (KnownName.find? name).bind fun known =>
        (ImportPatch.addImport? source known).map fun fixed => (known, fixed) with
    | some (known, fixed) =>
      { action := .patch (String.ofList fixed)
        description := s!"Added import of `{known.name}` from '{known.module}'"
        kind := diagnosis.kind
        target? := diagnosis.location.file? }
    | none => diagnosis.directive source s!"`{name}` is not defined"
        s!"`{name}` is used but never imported or declared. Import it from the module that provides it, or define it in this file (for a component, create a simple implementation)."
  | none, none, some found =>
    let module := found.groupText 1
    diagnosis.directive source s!"Module `{module}` cannot be resolved"
      s!"The import `{module}` cannot be resolved. Fix the import path to an existing file, or remove the import and inline what it provided."
  | none, none, none =>
    ⟨.none, "Could not identify the missing import", diagnosis.kind, diagnosis.location.file?⟩

/-- The remedy for a value of the wrong type. -/
def typeRemedy (diagnosis : Diagnosis) (source : List Char) : Remedy :=
  let text := diagnosis.details
  match Form.emptyAccess.find? text, Form.notFunction.find? text, Form.typeMismatch.find? text,
    Form.unknownProperty.find? text with
  | some found, _, _, _ =>
    let nothing := found.groupText 1
    if found.has 2 then
      let property := found.groupText 2
      diagnosis.directive source s!"Reading `{property}` of {nothing}"
        s!"A value is {nothing} when `.{property}` is read from it. Initialize state with a sensible default (for example an empty array), guard the access with optional chaining, or render a fallback until the data exists."
    else
      diagnosis.directive source s!"Property access on {nothing}"
        s!"A value is {nothing} when a property is read from it. Add a guard or a default value."
  | none, some found, _, _ =>
    let callee := found.groupText 1
    diagnosis.directive source s!"`{callee}` is not a function"
      s!"`{callee}` is called but is not a function. Check that it is imported correctly (default vs named) and that the value has the expected type, e.g. that `.map` is called on an array."
  | none, none, some found, _ =>
    let given := found.groupText 1
    let expected := found.groupText 2
    diagnosis.directive source s!"`{given}` is not assignable to `{expected}`"
      s!"A value of type `{given}` is used where `{expected}` is expected. Convert the value or correct the declared type."
  | none, none, none, some found =>
    let property := found.groupText 1
    let type := found.groupText 2
    diagnosis.directive source s!"`{property}` missing on `{type}`"
      s!"Property `{property}` does not exist on type `{type}`. Add it to the type definition or use a property that exists."
  | none, none, none, none => diagnosis.generalRemedy source

/-- The remedy for an error at run time. -/
def runtimeRemedy (diagnosis : Diagnosis) (source : List Char) : Remedy :=
  let text := diagnosis.details
  if Form.endlessRecursion.occursIn text then
    diagnosis.directive source "Infinite recursion"
      "The code recurses without end. Look for a component that renders itself, a function that calls itself without a base case, or an effect that updates state listed in its own dependency array. Add the missing dependency array or break the cycle."
  else match Form.usedTooEarly.find? text with
    | some found =>
      let name := found.groupText 1
      diagnosis.directive source s!"`{name}` used before initialization"
        s!"`{name}` is read before its declaration has run. Move the declaration above its first use."
    | none =>
      if Text.contains "ReferenceError".toList text then
        diagnosis.directive source "Reference error" <| match undefinedName? text with
          | some name => s!"`{name}` does not exist at runtime. Import or declare it."
          | none => "A referenced name does not exist at runtime. Import or declare it."
      else diagnosis.generalRemedy source

/-- The remedy for a source that is not well formed. -/
def sourceFormRemedy (diagnosis : Diagnosis) (source : List Char) : Remedy :=
  let text := diagnosis.details
  let place := diagnosis.placeWords
  if Text.contains "Unterminated string".toList text ||
      Text.contains "Unterminated template".toList text then
    diagnosis.directive source s!"Unterminated literal{place}"
      s!"A string or template literal opened{place} is never closed. Add the missing closing quote or backtick."
  else if Form.unexpectedEnd.occursIn text then
    diagnosis.directive source s!"Unexpected end of input{place}"
      "The file ends before all brackets, braces or JSX tags are closed. It was probably truncated; complete the remaining code and close every open block."
  else match Form.strayToken.find? text with
    | some found =>
      let token := String.ofList <|
        (((found.group? 1).filter (· ≠ [])).or (found.group? 2)).getD "token".toList
      diagnosis.directive source s!"Unexpected `{token}`{place}"
        s!"There is an unexpected `{token}`{place}. Check for a missing or extra bracket, comma or closing JSX tag just before it."
    | none => diagnosis.generalRemedy source

/-- The remedy for a broken rule about hooks. -/
def hookRemedy (diagnosis : Diagnosis) (source : List Char) : Remedy :=
  let text := diagnosis.details
  let reads (words : String) : Bool := Text.contains words.toList text
  let hook := match Form.namedHook.find? text with
    | some found => found.groupText 1
    | none => "the hook"
  if reads "called conditionally" then
    diagnosis.directive source s!"`{hook}` called conditionally"
      s!"Move `{hook}` to the top level of the component so it runs on every render, before any early return. Put the condition inside the hook's callback instead."
  else if reads "Invalid hook call" || reads "is called in function" || reads "cannot be called" then
    diagnosis.directive source s!"`{hook}` called outside a component"
      s!"`{hook}` is called outside the body of a function component or custom hook. Move the call into a component, or turn the surrounding function into a custom hook whose name starts with `use`."
  else if reads "Rendered more hooks" || reads "Rendered fewer hooks" then
    diagnosis.directive source "Hook count changed between renders"
      "The number of hooks differs between renders. Remove early returns placed before hook calls and never call hooks inside loops or conditions."
  else diagnosis.generalRemedy source

/-- The remedy for a diagnosed error in a source. -/
def remedy (diagnosis : Diagnosis) (source : String) : Remedy :=
  match diagnosis.kind with
  | .missingImport => diagnosis.importRemedy source.toList
  | .typeError => diagnosis.typeRemedy source.toList
  | .runtimeError => diagnosis.runtimeRemedy source.toList
  | .syntaxError => diagnosis.sourceFormRemedy source.toList
  | .hookRule => diagnosis.hookRemedy source.toList
  | .styleIssue | .unknown => diagnosis.generalRemedy source.toList

end Diagnosis

end LivePreview
