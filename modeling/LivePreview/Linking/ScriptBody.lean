import LivePreview.FileKind
import LivePreview.Linking.Clause
import LivePreview.Pattern.Matching
import LivePreview.Resolution
import LivePreview.Script.Form
import LivePreview.Text.Quoted

/-!
The body of a script as a function of a module registry. `Importing.ofScript` turns each import into
a request to the registry and keeps a list of what is imported; `assignExports` turns each export
into an assignment.
-/

namespace LivePreview.Linking

open Script

/-- A module that a script mentions. -/
structure Mention where
  /-- The module as the script calls it. -/
  name : String
  /-- The exports that the script needs from it. -/
  required : List String
  /-- The byte offset of the mention. -/
  offset : Nat
deriving DecidableEq, Repr

/-- The identifier under which the module of that name is in the registry. A style sheet is in none:
it goes with the styles of the page. -/
def registered? (files : Sources) (importer name : String) : Option String :=
  match files.resolve importer name with
  | .file path => if FileKind.ofPath? path = some .style then none else some path
  | .asset id _ => some id
  | .package name => some name
  | .unknown name => some name

/-- The expression that asks the registry for a module. -/
def request (id : String) : List Char :=
  "__forge_require(".toList ++ Text.quote id.toList ++ [')']

/-- A script in which imports are being replaced. -/
structure Importing where
  body : List Char
  /-- The modules mentioned so far. -/
  mentions : List Mention
  /-- The number of imports bound so far, in this script and those before it. -/
  count : Nat
deriving DecidableEq, Repr

/-- What becomes of one mention of a module. -/
structure Replacement where
  text : List Char
  mention? : Option Mention
  /-- The import counts as bound. -/
  counts : Bool
deriving DecidableEq, Repr

namespace Replacement

/-- Nothing remains, as of an import of types. -/
def nothing : Replacement := ⟨[], none, false⟩

/-- What becomes of an import statement, `count` being the number of imports bound before. -/
def ofImport (registered? : String → Option String) (count : Nat) (found : Pattern.Match) :
    Replacement :=
  if found.has 1 then nothing
  else
    let clause := ImportClause.parse (found.group 2)
    let name := String.ofList (found.group 3)
    let mention := some ⟨name, clause.required, found.start.offset⟩
    match registered? name with
    | some id => ⟨clause.render (request id) (count + 1), mention, true⟩
    | none => ⟨clause.renderStyle, mention, false⟩

/-- What becomes of a module that is mentioned in a form without a clause. -/
def ofMention (registered? : String → Option String) (name : List Char) (offset : Nat)
    (text : Option String → List Char) : Replacement :=
  let name := String.ofList name
  ⟨text (registered? name), some ⟨name, [], offset⟩, false⟩

/-- The statement that exports what a module exports, `form` being the star or the list. -/
def reexport (form module : List Char) : List Char :=
  match form with
  | '*' :: rest =>
    match starAlias rest with
    | [] => "__forge_reexport(exports, ".toList ++ module ++ ");".toList
    | name => "exports.".toList ++ name ++ " = ".toList ++ module ++ [';']
  | _ =>
    let items := Renaming.ofItems (dropClosingBraces (form.dropWhile (· == '\x7b')))
    let assignments := items.map fun item =>
      "exports.".toList ++ item.newName ++ " = __m.".toList ++ item.name ++ [';']
    "(function (__m) \x7b ".toList ++ [' '].intercalate assignments ++ " \x7d)(".toList ++
      module ++ ");".toList

/-- What becomes of an export from another module. -/
def ofReexport (registered? : String → Option String) (_ : Nat) (found : Pattern.Match) :
    Replacement :=
  if found.has 1 then nothing
  else ofMention registered? (found.group 3) found.start.offset fun
    | some id => reexport (Text.trim (found.group 2)) (request id)
    | none => []

/-- What becomes of an import when it is asked for. -/
def ofDeferredImport (registered? : String → Option String) (_ : Nat) (found : Pattern.Match) :
    Replacement :=
  ofMention registered? (found.group 1) found.start.offset fun
    | some id => "Promise.resolve(".toList ++ request id ++ [')']
    | none => "Promise.resolve(\x7b\x7d)".toList

/-- What becomes of a `require` call. -/
def ofRequireCall (registered? : String → Option String) (_ : Nat) (found : Pattern.Match) :
    Replacement :=
  ofMention registered? (found.group 1) found.start.offset fun
    | some id => request id
    | none => "(\x7b\x7d)".toList

/-- The replacements of several matches, from left to right. -/
def ofMatches (replace : Nat → Pattern.Match → Replacement) :
    (count : Nat) → List Pattern.Match → List Replacement
  | _, [] => []
  | count, found :: later =>
    let replacement := replace count found
    replacement :: ofMatches replace (if replacement.counts then count + 1 else count) later

end Replacement

namespace Importing

/-- Replace every match of a form. -/
def step (form : Pattern) (replace : Nat → Pattern.Match → Replacement) (script : Importing) :
    Importing :=
  let found := form.findAll script.body
  let replacements := Replacement.ofMatches replace script.count found
  { body := Pattern.splice (.start script.body) (found.zip (replacements.map (·.text)))
    mentions := script.mentions ++ replacements.filterMap (·.mention?)
    count := script.count + replacements.countP (·.counts) }

/-- Replace the imports of a script, those of each form in turn. -/
def ofScript (registered? : String → Option String) (count : Nat) (source : List Char) :
    Importing :=
  let script : Importing := ⟨source, [], count⟩
  script |>.step Form.importStatement (Replacement.ofImport registered?)
    |>.step Form.reexportStatement (Replacement.ofReexport registered?)
    |>.step Form.deferredImport (Replacement.ofDeferredImport registered?)
    |>.step Form.requireCall (Replacement.ofRequireCall registered?)

end Importing

/-- A script in which exports are being replaced, and the assignments to stand at its end. -/
structure Exporting where
  body : List Char
  assignments : List (List Char)
deriving DecidableEq, Repr

/-- The assignment of a value to an export. -/
def assignment (exported value : List Char) : List Char :=
  "exports.".toList ++ exported ++ " = ".toList ++ value ++ [';']

namespace Exporting

/-- Replace every match of a form, each with assignments for the end of the script. -/
def step (form : Pattern) (edit : Pattern.Match → List Char)
    (assign : Pattern.Match → List (List Char)) (script : Exporting) : Exporting :=
  let found := form.findAll script.body
  { body := Pattern.splice (.start script.body) (found.map fun m => (m, edit m))
    assignments := script.assignments ++ found.flatMap assign }

/-- The declaration in an export, behind its indent. -/
def declaration (found : Pattern.Match) : List Char := found.group 1 ++ found.group 2

/-- The assignments for a list of exported names; a list of types has none. -/
def listAssignments (found : Pattern.Match) : List (List Char) :=
  if found.has 1 then []
  else (Renaming.ofItems (found.group 2)).map fun item => assignment item.newName item.name

/-- Replace the exports of a script, those of each form in turn. -/
def ofScript (source : List Char) : Exporting :=
  let script : Exporting := ⟨source, []⟩
  script
    |>.step Form.defaultDeclaration declaration (fun found =>
      let name := ((found.group? 3).or (found.group? 4)).getD []
      [assignment "default".toList name])
    |>.step Form.defaultExpression (fun _ => "exports.default = ".toList) (fun _ => [])
    |>.step Form.valueDeclaration declaration (fun found =>
      [assignment (found.group 3) (found.group 3)])
    |>.step Form.typeDeclaration declaration (fun _ => [])
    |>.step Form.listStatement (fun _ => []) listAssignments

end Exporting

/-- A script in which every export has become an assignment. -/
def assignExports (source : List Char) : List Char :=
  let script := Exporting.ofScript source
  let trailer :=
    if script.assignments = [] then [] else '\n' :: ['\n'].intercalate script.assignments
  "exports.__esModule = true;\n".toList ++ script.body ++ trailer

end LivePreview.Linking
